import MeshPP.P2PSocket.Attentive
import MeshPP.P2PSocket.Signed

/-! # Nodes that find each other

Two nodes that are linked to a third one are introduced to each other by it.
Whichever of the two is told of the contacts last finds the other one among
them, asks for it, and both are told to connect. This takes every packet to be
delivered in the end, but in any order and with any steps in between. -/

set_option linter.unusedSectionVars false

namespace MeshPP.P2PSocket
open MeshPP.Lib MeshPP.Kbucket MeshPP.CryptoUtility

/-- Of two elements of a list, one comes in front of the other. -/
theorem before_or_before {α : Type} {l : List α} {d e : α} (hd : d ∈ l) (he : e ∈ l) (hne : d ≠ e) :
    (∃ b a, l = b ++ e :: a ∧ d ∈ b) ∨ ∃ b a, l = b ++ d :: a ∧ e ∈ b := by
  obtain ⟨b, a, rfl⟩ := List.append_of_mem he
  rcases List.mem_append.mp hd with hd | hd
  · exact .inl ⟨b, a, rfl, hd⟩
  · have hda : d ∈ a := (List.mem_cons.mp hd).resolve_left hne
    obtain ⟨b', a', rfl⟩ := List.append_of_mem hda
    exact .inr ⟨b ++ e :: b', a', by simp, by simp⟩

section
variable [Sha256] [EmptyDestination] {N : Type} {sites : N → Site} {links : Links N PeerId}
  {w : N → Station} {n m k : N} {p q : PeerId} {packet : Packet}
  {before after : List SocketEvent}

/-! ## Nodes that trust each other -/

/-- What the nodes sign is not empty, and it is verified wherever it arrives. -/
structure Trusted (sites : N → Site) : Prop where
  signs : ∀ n message, (sites n).library.sign message ≠ ""
  valid : ∀ n m, (sites n).library.validPublicKey (sites m).selfId = true
  stamped : ∀ n m stamp, (sites n).library.verifySignature (sites m).selfId
    (@stampedMessage (sites n).library (sites m).selfId stamp)
    ((sites m).library.sign (@stampedMessage (sites m).library (sites m).selfId stamp)) = true

theorem Trusted.ping (h : Trusted sites) (n m : N) {msg : Ping} (hid : msg.nodeid = (sites m).selfId)
    (hs : msg.signature =
      (sites m).library.sign (@stampedMessage (sites m).library (sites m).selfId msg.stamp)) :
    @Ping.Signed (sites n).library msg := by
  refine ⟨hs ▸ h.signs m _, hid ▸ h.valid n m, ?_⟩
  rw [hid, hs]
  exact h.stamped n m msg.stamp

theorem Trusted.pong (h : Trusted sites) (n m : N) {msg : Pong} (hid : msg.nodeid = (sites m).selfId)
    (hs : msg.signature =
      (sites m).library.sign (@stampedMessage (sites m).library (sites m).selfId msg.stamp)) :
    @Pong.Signed (sites n).library msg := by
  refine ⟨hs ▸ h.signs m _, hid ▸ h.valid n m, ?_⟩
  rw [hid, hs]
  exact h.stamped n m msg.stamp

/-- Nodes that hold keys trust each other, when no signature is empty. -/
theorem trusted_ofKey {c : CryptoPP} {e : Ecdsa c} (hc : c.Lawful) (he : e.Lawful)
    (publicKeyPrefix : Bytes) (gmTime : Int → String) (nonce : N → String → Bytes)
    {keys : N → PrivateKey c.sha256d} (hkeys : ∀ n, c.PrivateExponent (keys n).sk)
    (hder : ∀ a nonce message, c.PrivateExponent a →
      e.toDer ((e.sign a nonce message).length * 2) (e.sign a nonce message) ≠ []) :
    Trusted fun n => Site.ofKey c e publicKeyPrefix gmTime (nonce n) (keys n) := by
  have hr := recognised_ofKey hc he publicKeyPrefix gmTime nonce hkeys
  refine ⟨fun n message hempty => ?_, hr.valid, hr.stamped⟩
  have hnil := congrArg bytesOf hempty
  rw [sign_ofKey hc he (hkeys n), bytesOf_textOf] at hnil
  have hder' := congrArg decode hnil
  rw [decode_encode] at hder'
  exact hder _ _ _ (hkeys n) (hder'.trans (by decide))

/-! ## What a node is asked for -/

/-- The node has given occasion to the packet by what it has sent before. -/
def Elicited (before : List SocketEvent) (p : PeerId) : Packet → Prop
  | .findNode _ => ∃ pong, .sent p (.pong pong) ∈ before
  | .introduceTo nodeid =>
    ∃ origin nodeids, .sent p (.nodeDetails origin nodeids) ∈ before ∧ nodeid ∈ nodeids
  | _ => True

theorem Elicited.later (h : Elicited before p packet) (ht : before <+: after) :
    Elicited after p packet := by
  cases packet with
  | findNode name => exact h.imp fun _ hm => ht.subset hm
  | introduceTo name =>
    obtain ⟨origin, nodeids, hm, hin⟩ := h
    exact ⟨origin, nodeids, ht.subset hm, hin⟩
  | _ => trivial

/-- What a step delivers, it has read. -/
theorem delivered_step [Library] {s : Internals} (ha : Acquainted s) (op : P2POp)
    (hf : packet.fromNode) (ht : (s.step op).2.trace = before ++ .delivered p packet :: after) :
    (∃ after', s.trace = before ++ .delivered p packet :: after') ∨
      s.trace <+: before ∧ packet ∈ op.reads s p := by
  obtain ⟨new, hnew⟩ := step_trace ha.indexed op
  rcases cons_of_append (hnew.trans ht) with hold | ⟨b, rfl, rfl⟩
  · exact .inl hold
  · refine .inr ⟨List.prefix_append _ _, ?_⟩
    have hlogs : ports.Logs Station.step ⟨s, [], []⟩ op := station_logs ha op
    obtain ⟨done, hdone, hheard⟩ := hlogs.heard p
    have hsplit : heardFrom p (s.step op).2.trace = heardFrom p s.trace ++
        heardFrom p (b ++ .delivered p packet :: after) := by
      rw [← hnew]
      exact List.filterMap_append
    have hsame : heardFrom p (b ++ .delivered p packet :: after) = done :=
      List.append_cancel_left (hsplit.symm.trans hheard)
    refine hdone.subset (hsame ▸ mem_heardFrom.mpr ⟨?_, hf⟩)
    exact List.mem_append_right _ List.mem_cons_self

/-- Over links that carry what is sent, a node is asked only for what it has given occasion to. -/
theorem Sound.elicited (h : Sound sites links w) {op : P2POp}
    (hc : ports.Carries links w (n, op)) (hread : packet ∈ op.reads (w n).node p) :
    Elicited (w n).node.trace p packet := by
  obtain ⟨m, q, hlink, hmem⟩ := hc p packet hread
  have hback := links.symm hlink
  have hreturn : ∀ {answer : Packet}, .delivered q answer ∈ (w m).node.trace → answer.fromNode →
      .sent p answer ∈ (w n).node.trace := by
    intro answer hd hf
    obtain ⟨n', p', hlink', hs⟩ := h.sent hd hf
    obtain ⟨rfl, rfl⟩ : n = n' ∧ p = p' := Prod.mk.inj (Option.some.inj (hback.symm.trans hlink'))
    exact hs
  obtain ⟨earlier, hearlier, hsincere⟩ := (h.kept m).sincere (mem_sentTo.mp hmem)
  cases packet with
  | findNode name =>
    obtain ⟨-, pong, hd⟩ := hsincere
    exact ⟨pong, hreturn (hearlier.subset hd) rfl⟩
  | introduceTo name =>
    obtain ⟨-, origin, nodeids, hd, hin⟩ := hsincere
    exact ⟨origin, nodeids, hreturn (hearlier.subset hd) rfl, hin⟩
  | _ => trivial

/-! ## Runs -/

/-- Each node does its part. -/
def PromptAt (sites : N → Site) (w : N → Station) (op : N × P2POp) : Prop :=
  @Prompt _ _ (sites op.1).library (w op.1).node op.2

/-- What holds of a network whose nodes do their part. -/
structure Discovering (sites : N → Site) (links : Links N PeerId) (w : N → Station) : Prop where
  sound : Sound sites links w
  attentive : ∀ n, @Attentive _ (sites n).library (sites n).selfId (w n).node
  elicited : ∀ n before p packet after, packet.fromNode →
    (w n).node.trace = before ++ .delivered p packet :: after → Elicited before p packet

theorem Created.discovering (h : Created sites w) : Discovering sites links w := by
  refine ⟨⟨h.kept, h.carried⟩, fun n => ?_, fun n before p packet after _ ht => ?_⟩
  · let _ := (sites n).library
    obtain ⟨-, -, discoveryServer, bindToAddress, connectToAddresses, hcreate⟩ := h n
    exact attentive_create hcreate
  · rw [h.trace] at ht
    cases before <;> cases ht

theorem Discovering.step [DecidableEq N] (h : Discovering sites links w) {op : N × P2POp}
    (hc : ports.Carries links w op) (hprompt : PromptAt sites w op) :
    Discovering sites links (networkStep sites w op).2 := by
  have hkept : ∀ n, KeptAt sites n ((networkStep sites w op).2 n) :=
    netStep_invariant (fun _ _ op hk => KeptAt.step hk op) h.sound.kept
  have hcarried : ports.Carried links (networkStep sites w op).2 :=
    Ports.carried_step h.sound.carried (KeptAt.logs (h.sound.kept op.1) op.2) hc
  have hself : (networkStep sites w op).2 op.1 =
      (@Station.step _ _ (sites op.1).library (w op.1) op.2).2 := netStep_self
  refine ⟨⟨hkept, hcarried⟩, fun n => ?_, fun n before p packet after hf ht => ?_⟩
  · by_cases hn : n = op.1
    · subst hn
      rw [hself]
      let _ := (sites op.1).library
      exact (h.attentive op.1).step (Kept.speaks (h.sound.kept op.1)) hprompt
    · rw [networkStep, netStep_ne hn]
      exact h.attentive n
  · by_cases hn : n = op.1
    · subst hn
      rw [hself] at ht
      let _ := (sites op.1).library
      have hacq := (Kept.speaks (h.sound.kept op.1)).acquainted
      rcases delivered_step hacq op.2 hf ht with ⟨after', hold⟩ | ⟨hbefore, hread⟩
      · exact h.elicited op.1 before p packet after' hf hold
      · exact (h.sound.elicited hc hread).later hbefore
    · rw [networkStep, netStep_ne hn] at ht
      exact h.elicited n before p packet after hf ht

theorem Discovering.final [DecidableEq N] (h : Discovering sites links w) {ops : List (N × P2POp)}
    (hm : Meets (networkStep sites) (fun w op => ports.Carries links w op ∧ PromptAt sites w op)
      w ops) :
    Discovering sites links (final (networkStep sites) w ops) :=
  invariant_final (fun _ _ h hc => h.step hc.1 hc.2) h hm

theorem Discovering.answer (h : Discovering sites links w)
    (hd : .delivered p packet ∈ (w n).node.trace) :
    ∃ before after, (w n).node.trace = before ++ .delivered p packet :: after ∧
      @Answered _ (sites n).library (sites n).selfId before (w n).node.trace p packet := by
  let _ := (sites n).library
  obtain ⟨before, after, htrace⟩ := List.append_of_mem hd
  exact ⟨before, after, htrace, (h.attentive n).answered before p packet after htrace⟩

/-! ## When all is delivered -/

/-- All that was sent over the links has been delivered. -/
def Quiescent (links : Links N PeerId) (w : N → Station) : Prop :=
  ∀ n p m q packet, links.other n p = some (m, q) → packet.fromNode →
    .sent p packet ∈ (w n).node.trace → .delivered q packet ∈ (w m).node.trace

/-- `n` has asked `m` for `k`, and `m` has told each of them to connect to the other one. -/
structure Introduction (sites : N → Site) (links : Links N PeerId) (w : N → Station)
    (m n k : N) (p a b q : PeerId) (addr addr' : IpAddress) : Prop where
  asker : links.other n p = some (m, a)
  wanted : links.other m b = some (k, q)
  told : [.delivered a (.introduceTo (sites k).selfId), .sent a (.openConnectionWith addr),
    .sent b (.openConnectionWith addr')] <:+: (w m).node.trace
  opens : .delivered p (.openConnectionWith addr) ∈ (w n).node.trace
  opened : .delivered q (.openConnectionWith addr') ∈ (w k).node.trace

/-- `n` has met `k`, or is introduced to it by `m`. -/
def Finds (sites : N → Site) (links : Links N PeerId) (w : N → Station) (m n k : N) : Prop :=
  (∃ p, Met (w n).node.trace p (sites k).selfId) ∨
    ∃ p a b q addr addr', Introduction sites links w m n k p a b q addr addr'

/-- A node that has joined is told of the contacts. -/
theorem Discovering.told {a : PeerId} (h : Discovering sites links w) (ht : Trusted sites)
    (hq : Quiescent links w) (hlink : links.other n p = some (m, a))
    (hjoin : .delivered p .streamJoin ∈ (w n).node.trace)
    (hne : (sites m).selfId ≠ (sites n).selfId) :
    ∃ nodeids, .sent a (.nodeDetails (sites m).selfId nodeids) ∈ (w m).node.trace := by
  have hback := links.symm hlink
  obtain ⟨_, _, -, stamp, connection, hping⟩ := h.answer hjoin
  have hping' := hq n p m a _ hlink rfl hping
  obtain ⟨_, _, -, hpinged⟩ := h.answer hping'
  obtain ⟨stamp', hpong⟩ := hpinged (ht.ping m n rfl rfl)
  have hpong' := hq m a n p _ hback rfl hpong
  obtain ⟨_, _, -, hponged⟩ := h.answer hpong'
  have hfind' := hq n p m a _ hlink rfl (hponged (ht.pong n m rfl rfl) hne)
  obtain ⟨_, _, -, hdetails⟩ := h.answer hfind'
  exact hdetails

/-- Who was told of the contacts before is one of the contacts. -/
theorem Discovering.lists {a b : PeerId} {origin origin' : String} {nodeids nodeids' : List String}
    (h : Discovering sites links w)
    (hplaces : ∀ n m, stringDistance (sites n).selfId = stringDistance (sites m).selfId → n = m)
    (hlink : links.other m b = some (k, q))
    (htrace : (w m).node.trace = before ++ .sent a (.nodeDetails origin nodeids) :: after)
    (hbefore : .sent b (.nodeDetails origin' nodeids') ∈ before) :
    (sites k).selfId ∈ nodeids := by
  let _ := (sites m).library
  have hspeaks : Speaks (sites m).selfId (w m).node := Kept.speaks (h.sound.kept m)
  have hprefix : before <+: (w m).node.trace := htrace ▸ List.prefix_append _ _
  -- it has asked for them, and was sent a `Pong` before that
  obtain ⟨pong, hpong⟩ : ∃ pong, .sent b (.pong pong) ∈ before := by
    obtain ⟨earlier, later, rfl⟩ := List.append_of_mem hbefore
    rw [List.append_assoc] at htrace
    obtain ⟨-, ⟨name, hfind⟩, -⟩ := hspeaks.justified earlier b _ _ htrace
    obtain ⟨first, rest, rfl⟩ := List.append_of_mem hfind
    rw [List.append_assoc] at htrace
    obtain ⟨pong, hpong⟩ := h.elicited m first b (.findNode name) _ rfl htrace
    exact ⟨pong, List.mem_append_left _ (List.mem_append_left _ hpong)⟩
  obtain ⟨met, hmet, nodeid, hin, hplace⟩ :=
    (h.attentive m).listed before a origin nodeids after htrace b pong hpong
  obtain ⟨k', q', hlink', rfl⟩ := h.sound.met (hmet.later hprefix)
  obtain ⟨rfl, -⟩ : k = k' ∧ q = q' := Prod.mk.inj (Option.some.inj (hlink.symm.trans hlink'))
  have hsent : .sent a (.nodeDetails origin nodeids) ∈ (w m).node.trace :=
    htrace ▸ List.mem_append_right _ List.mem_cons_self
  obtain ⟨j, rfl⟩ := h.sound.names hsent (List.mem_cons_of_mem _ hin)
  exact hplaces j k hplace ▸ hin

/-- A node finds whom it is told of. -/
theorem Discovering.finds {a : PeerId} {origin : String} {nodeids : List String}
    (h : Discovering sites links w)
    (hplaces : ∀ n m, stringDistance (sites n).selfId = stringDistance (sites m).selfId → n = m)
    (hq : Quiescent links w) (hlink : links.other m a = some (n, p))
    (hsent : .sent a (.nodeDetails origin nodeids) ∈ (w m).node.trace)
    (hin : (sites k).selfId ∈ nodeids) (hne : n ≠ k) : Finds sites links w m n k := by
  have hback := links.symm hlink
  have hdetails := hq m a n p _ hlink rfl hsent
  obtain ⟨_, _, -, hcases⟩ := h.answer hdetails
  rcases hcases _ hin with hself | ⟨r, met, hmet, hplace⟩ | hasks
  · exact absurd (hplaces k n (congrArg stringDistance hself)).symm hne
  · obtain ⟨j, -, -, rfl⟩ := h.sound.met hmet
    obtain rfl := hplaces j k hplace
    exact .inl ⟨r, hmet⟩
  · -- the request is one for a node that was listed, so it is met with an introduction
    have hrequest := hq n p m a _ hback rfl hasks
    obtain ⟨before, after, htrace, hintroduced⟩ := h.answer hrequest
    obtain ⟨origin', nodeids', hlisted, hin'⟩ :=
      h.elicited m before a (.introduceTo (sites k).selfId) after rfl htrace
    obtain ⟨b, met, addr, addr', hmet, hplace, htold⟩ :=
      hintroduced ⟨a, origin', nodeids', hlisted, hin'⟩
    obtain ⟨j, q, hwanted, rfl⟩ := h.sound.met hmet
    obtain rfl := hplaces j k hplace
    have htold' := (List.suffix_append before _).isInfix.trans htold.isInfix
    refine .inr ⟨p, a, b, q, addr, addr', hback, hwanted, htold', ?_, ?_⟩
    · exact hq m a n p _ hlink rfl (htold'.subset (by simp))
    · exact hq m b j q _ hwanted rfl (htold'.subset (by simp))

/-- **Two nodes that have joined a third one find each other, once all that was sent has been
delivered.** -/
theorem network_discovers [DecidableEq N] {ops : List (N × P2POp)} {a b : PeerId}
    (ht : Trusted sites)
    (hplaces : ∀ n m, stringDistance (sites n).selfId = stringDistance (sites m).selfId → n = m)
    (h : Created sites w)
    (hm : Meets (networkStep sites) (fun w op => ports.Carries links w op ∧ PromptAt sites w op)
      w ops)
    (hq : Quiescent links (final (networkStep sites) w ops))
    (hnm : n ≠ m) (hkm : k ≠ m) (hnk : n ≠ k)
    (hn : links.other n p = some (m, a)) (hk : links.other k q = some (m, b))
    (hjoinn : .delivered p .streamJoin ∈ (final (networkStep sites) w ops n).node.trace)
    (hjoink : .delivered q .streamJoin ∈
      (final (networkStep sites) w ops k).node.trace) :
    Finds sites links (final (networkStep sites) w ops) m n k ∨
      Finds sites links (final (networkStep sites) w ops) m k n := by
  have hall := h.discovering.final hm
  have hids : ∀ {n}, n ≠ m → (sites m).selfId ≠ (sites n).selfId :=
    fun hne he => hne (hplaces m _ (congrArg stringDistance he)).symm
  obtain ⟨nodeids, hsentn⟩ := hall.told ht hq hn hjoinn (hids hnm)
  obtain ⟨nodeids', hsentk⟩ := hall.told ht hq hk hjoink (hids hkm)
  have hlinkn := links.symm hn
  have hlinkk := links.symm hk
  have hports : a ≠ b := by
    rintro rfl
    exact hnk (Prod.mk.inj (Option.some.inj (hlinkn.symm.trans hlinkk))).1
  -- whichever of the two is told last is told of the other one
  rcases before_or_before hsentn hsentk fun he => hports (SocketEvent.sent.inj he).1 with
    ⟨before, after, htrace, hbefore⟩ | ⟨before, after, htrace, hbefore⟩
  · exact .inr (hall.finds hplaces hq hlinkk hsentk
      (hall.lists hplaces hlinkn htrace hbefore) (Ne.symm hnk))
  · exact .inl (hall.finds hplaces hq hlinkn hsentn (hall.lists hplaces hlinkk htrace hbefore) hnk)

end

/-! ## A network that comes to rest -/

namespace Sample

section
variable [Sha256] [EmptyDestination]

def welcome [Library] (p : PeerId) (x : Packet × PacketCalls) (s : Internals) : Bool :=
  match x.1 with
  | .ping msg => !outdated msg.stamp x.2.now && decide (s.SeenBy msg) &&
    match s.state.addContact p msg.nodeid with
    | .ok (status, _) => decide (status ≠ .noContact)
    | .error _ => true
  | .pong msg => !outdated msg.stamp x.2.now
  | .nodeDetails _ nodeids => nodeids.all fun nodeid => decide (¬s.state.Barred nodeid)
  | _ => true

def welcomes [Library] (p : PeerId) : List (Packet × PacketCalls) → Received → Internals → Bool
  | [], _, _ => true
  | x :: rest, r, s => welcome p x s &&
    match receivePacket p r x s with
    | .ok r' s' => welcomes p rest r' s'
    | .error _ _ => true

def prompt [Library] (s : Internals) : P2POp → Bool
  | .receive ord peer batch =>
    (batch.all fun b => welcomes b.1 b.2 ⟨peer, .none, []⟩ s) &&
      match (s.step (.receive ord peer batch)).1 with
      | .thrown _ => false
      | _ => true
  | .prepareWait _ => false
  | _ => true

theorem welcome_of_true [Library] {p : PeerId} {r : Received} {x : Packet × PacketCalls}
    {s : Internals} (h : welcome p x s = true) : Welcome p r x s := by
  obtain ⟨packet, calls⟩ := x
  refine ⟨fun msg he => ?_, fun msg status b he hb => ?_, fun msg he => ?_,
    fun origin nodeids he nodeid hin => ?_⟩
  all_goals
    obtain rfl : packet = _ := he
    simp only [welcome, Bool.and_eq_true, Bool.not_eq_true', decide_eq_true_eq, List.all_eq_true] at h
  · exact h.1
  · rw [hb.addContact_eq] at h
    exact of_decide_eq_true h.2
  · exact h
  · exact h nodeid hin

theorem welcomes_of_true [Library] {p : PeerId} {packets : List (Packet × PacketCalls)}
    {r : Received} {s : Internals} (h : welcomes p packets r s = true) :
    FoldMeets (Welcome p) (receivePacket p) packets r s := by
  induction packets generalizing r s with
  | nil => trivial
  | cons x rest ih =>
    obtain ⟨hx, hrest⟩ := Bool.and_eq_true_iff.mp h
    refine ⟨welcome_of_true hx, fun r' s' hrun => ih ?_⟩
    rwa [hrun] at hrest

theorem prompt_of_true [Library] {s : Internals} {op : P2POp} (h : prompt s op = true) :
    Prompt s op := by
  cases op with
  | receive ord peer batch =>
    obtain ⟨hbatch, hreturns⟩ := Bool.and_eq_true_iff.mp h
    refine ⟨fun _ p packets he => ?_, fun e he => ?_⟩
    · subst he
      exact welcomes_of_true hbatch
    · rw [he] at hreturns
      cases hreturns
  | prepareWait calls => cases h
  | send peer pack returns => trivial
  | timerAction calls => trivial

section
variable {N : Type} [DecidableEq N] (sites : N → Site) (links : Links N PeerId)

def allPrompt (w : N → Station) : List (N × P2POp) → Bool
  | [] => true
  | op :: ops => orders links w op && @prompt _ _ (sites op.1).library (w op.1).node op.2 &&
    allPrompt (networkStep sites w op).2 ops

/-- All that was sent on a port was heard on the other end. -/
def rests (w : N → Station) (n : N) (p : PeerId) : Bool :=
  match links.other n p with
  | some (m, q) => (sentTo p (w n).node.trace).all fun packet =>
    !packet.fromNode || decide (packet ∈ heardFrom q (w m).node.trace)
  | none => true

variable {sites links}

theorem meets_allPrompt {w : N → Station} {ops : List (N × P2POp)}
    (h : allPrompt sites links w ops = true) :
    Meets (networkStep sites) (fun w op => ports.Carries links w op ∧ PromptAt sites w op)
      w ops := by
  induction ops generalizing w with
  | nil => trivial
  | cons op ops ih =>
    obtain ⟨hop, hops⟩ := Bool.and_eq_true_iff.mp h
    obtain ⟨horders, hprompt⟩ := Bool.and_eq_true_iff.mp hop
    exact ⟨⟨(ports_orders horders).carries, @prompt_of_true _ _ (sites op.1).library _ _ hprompt⟩,
      ih hops⟩

theorem quiescent_of_rests {w : N → Station}
    (h : ∀ n p j, links.other n p = some j → rests links w n p = true) : Quiescent links w := by
  intro n p m q packet hlink hf hs
  have hn := h n p _ hlink
  unfold rests at hn
  rw [hlink] at hn
  have hpacket := List.all_eq_true.mp hn packet (mem_sentTo.mpr hs)
  rw [hf, Bool.not_true, Bool.false_or] at hpacket
  exact (mem_heardFrom.mp (of_decide_eq_true hpacket)).1

end

def Place.ports : List (Place × PeerId) :=
  [(.hub, "left"), (.left, "hub"), (.hub, "right"), (.right, "hub")]

theorem Place.mem_ports {n : Place} {p : PeerId} {j : Place × PeerId}
    (h : Place.links.other n p = some j) : (n, p) ∈ Place.ports := by
  unfold Place.ports
  cases n <;> grind [Place.links]

/-- All that is sent gets read, until nothing is left. -/
def gathering : List (Place × P2POp) :=
  relay Place.site Place.links Place.start
    (Place.ports ++ Place.ports ++ Place.ports ++ Place.ports ++ Place.ports)

def joined (w : Place → Station) (n : Place) (p : PeerId) : Bool :=
  decide (.delivered p .streamJoin ∈ (w n).node.trace)

theorem mem_of_joined {w : Place → Station} {n : Place} {p : PeerId} (h : joined w n p = true) :
    .delivered p .streamJoin ∈ (w n).node.trace :=
  of_decide_eq_true h

def gathered : Bool :=
  created Place.hub.site && created Place.left.site && created Place.right.site &&
    allPrompt Place.site Place.links Place.start gathering &&
    let w := final (networkStep Place.site) Place.start gathering
    (Place.ports.all fun x => rests Place.links w x.1 x.2) && joined w .left "hub" &&
      joined w .right "hub"

end

theorem gathered_true : @gathered sha256 emptyDestination = true := by decide +kernel

theorem Place.trusted : Trusted Place.site where
  signs n message := by cases n <;> exact of_decide_eq_false rfl
  valid n m := by cases n <;> cases m <;> decide
  stamped n m stamp := by
    cases n <;> cases m <;> exact decide_eq_true ⟨of_decide_eq_false rfl, rfl, rfl⟩

theorem Place.apart (n m : Place)
    (h : @stringDistance sha256 n.site.selfId = @stringDistance sha256 m.site.selfId) : n = m := by
  revert h
  cases n <;> cases m <;> decide

end Sample

theorem network_discovers_gathering :
    letI := Sample.sha256
    letI := Sample.emptyDestination
    Finds Sample.Place.site Sample.Place.links
        (final (networkStep Sample.Place.site) Sample.Place.start Sample.gathering)
        .hub .left .right ∨
      Finds Sample.Place.site Sample.Place.links
        (final (networkStep Sample.Place.site) Sample.Place.start Sample.gathering)
        .hub .right .left := by
  let _ := Sample.sha256
  let _ := Sample.emptyDestination
  have h := Sample.gathered_true
  unfold Sample.gathered at h
  simp only [Bool.and_eq_true, List.all_eq_true] at h
  obtain ⟨⟨⟨⟨hhub, hleft⟩, hright⟩, hmeets⟩, ⟨hrests, hjoinl⟩, hjoinr⟩ := h
  have hcreated : Created Sample.Place.site Sample.Place.start := Sample.created_start fun n => by
    cases n with
    | hub => exact hhub
    | left => exact hleft
    | right => exact hright
  have hquiescent := Sample.quiescent_of_rests fun n p j hlink =>
    hrests (n, p) (Sample.Place.mem_ports hlink)
  have hl : Sample.Place.links.other .left "hub" = some (.hub, "left") := rfl
  have hr : Sample.Place.links.other .right "hub" = some (.hub, "right") := rfl
  exact network_discovers Sample.Place.trusted Sample.Place.apart hcreated
    (Sample.meets_allPrompt hmeets) hquiescent (by decide) (by decide) (by decide) hl hr
    (Sample.mem_of_joined hjoinl) (Sample.mem_of_joined hjoinr)

end MeshPP.P2PSocket
