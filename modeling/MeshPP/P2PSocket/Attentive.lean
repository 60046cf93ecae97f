import MeshPP.P2PSocket.Station
import MeshPP.P2PSocket.TableUse

/-! # What a node answers

Nothing is sent without a reason; here is the other side of it. In a run in which
no `receive` throws, every packet that was delivered has been answered, provided
it came in time, to a node that is seen where it is known to be, that has room
for whoever pings it and does not hold back what it is told of. -/

set_option linter.unusedSectionVars false

namespace MeshPP.P2PSocket
open MeshPP.Lib MeshPP.Kbucket

section
variable [Sha256] [EmptyDestination] [Library]

/-! ## Places in the bucket -/

namespace P2PState
variable {t t' : P2PState} {nodeid : String} {c : Konnection} {status : ContactStatus}
  {b : KBucket Konnection}

/-- There is a contact in the place of the node. -/
def HasPlace (t : P2PState) (nodeid : String) : Prop :=
  ∃ c ∈ t.kbucket.contacts, stringDistance c.nodeId = stringDistance nodeid

theorem HasPlace.of_eq (h : t.HasPlace nodeid) (hk : t'.kbucket = t.kbucket) :
    t'.HasPlace nodeid := by
  unfold HasPlace
  rw [hk]
  exact h

theorem hasPlace_of_find {p : PeerId} (h : (t.kbucket.find ⟨nodeid, p⟩).isSome) :
    t.HasPlace nodeid := by
  obtain ⟨c, hc⟩ := Option.isSome_iff_exists.mp h
  exact ⟨c, KBucket.find_some hc⟩

theorem HasPlace.getPeerId (h : t.HasPlace nodeid) : ∃ q, t.getPeerId nodeid = some q := by
  obtain ⟨c, hc, hplace⟩ := h
  cases hf : t.kbucket.find ⟨nodeid, ""⟩ with
  | none => exact absurd hplace (KBucket.find_eq_none.mp hf c hc)
  | some d => exact ⟨d.peer, by rw [P2PState.getPeerId, hf]; rfl⟩

theorem HasPlace.listed (h : t.HasPlace nodeid) :
    ∃ name ∈ t.getKbucketNodeids, stringDistance name = stringDistance nodeid := by
  obtain ⟨c, hc, hplace⟩ := h
  exact ⟨c.nodeId, List.mem_map.mpr ⟨c, hc, rfl⟩, hplace⟩

theorem hasPlace_of_listed (h : nodeid ∈ t.getKbucketNodeids) : t.HasPlace nodeid := by
  obtain ⟨c, hc, rfl⟩ := List.mem_map.mp h
  exact ⟨c, hc, rfl⟩

/-- `add_contact` takes no place away. -/
theorem Added.hasPlace (hb : Added t.kbucket c status b) (h : t.HasPlace nodeid) :
    { t with kbucket := b }.HasPlace nodeid := by
  obtain ⟨d, hd, hplace⟩ := h
  cases hb with
  | existing hf => exact ⟨d, hd, hplace⟩
  | full hf hins => exact ⟨d, hd, hplace⟩
  | new hf hins => exact ⟨d, (KBucket.insert_ok hins).2.mem_iff.mpr (List.mem_cons_of_mem _ hd), hplace⟩

/-- With room in the bucket, the node has its place behind `add_contact`. -/
theorem Added.place (hb : Added t.kbucket c status b) (hne : status ≠ .noContact) :
    { t with kbucket := b }.HasPlace c.nodeId := by
  cases hb with
  | existing hf => exact ⟨_, KBucket.find_some hf⟩
  | full hf hins => exact absurd rfl hne
  | new hf hins => exact ⟨c, (KBucket.insert_ok hins).2.mem_iff.mpr List.mem_cons_self, rfl⟩

/-! ## Nodes that a node is told of -/

/-- The back-off keeps the node from being asked for. -/
def Barred (t : P2PState) (nodeid : String) : Prop :=
  ∃ limit count, t.dropedNodes.lookup nodeid = some (limit, count) ∧ count < limit

instance (t : P2PState) (nodeid : String) : Decidable (t.Barred nodeid) :=
  decidable_of_iff ((t.dropedNodes.lookup nodeid).any fun x => x.2 < x.1) (by
    simp [Barred, Option.any_eq_true])

theorem introduceCandidate_of_not_barred (h : ¬ t.Barred nodeid) :
    (t.introduceCandidate nodeid).2 = t ∧
      (nodeid = t.selfId ∨ t.HasPlace nodeid ∨ (t.introduceCandidate nodeid).1 = true) := by
  unfold introduceCandidate
  split
  · next hself => exact ⟨rfl, .inl hself⟩
  · split
    · next hfind => exact ⟨rfl, .inr (.inl (hasPlace_of_find hfind))⟩
    · split
      · exact ⟨rfl, .inr (.inr rfl)⟩
      · next limit count hl =>
        rw [if_neg fun hlt => h ⟨limit, count, hl, hlt⟩]
        exact ⟨rfl, .inr (.inr rfl)⟩

/-- Each node that is not held back is asked for, unless it is known. -/
theorem filterIntroduceCandidates_asks {nodeids : List String}
    (h : ∀ nodeid ∈ nodeids, ¬ t.Barred nodeid) : ∀ nodeid ∈ nodeids,
      nodeid = t.selfId ∨ t.HasPlace nodeid ∨ nodeid ∈ (t.filterIntroduceCandidates nodeids).1 := by
  induction nodeids with
  | nil => exact fun _ hm => (nomatch hm)
  | cons candidate rest ih =>
    obtain ⟨hsame, hcase⟩ := introduceCandidate_of_not_barred (h candidate List.mem_cons_self)
    have hrest := ih fun nodeid hm => h nodeid (List.mem_cons_of_mem _ hm)
    intro nodeid hm
    unfold filterIntroduceCandidates
    dsimp only
    rw [hsame]
    rcases List.mem_cons.mp hm with rfl | hm
    · refine hcase.imp id (Or.imp id fun hwanted => ?_)
      rw [if_pos hwanted]
      exact List.mem_cons_self
    · refine (hrest nodeid hm).imp id (Or.imp id fun hin => ?_)
      split
      · exact List.mem_cons_of_mem _ hin
      · exact hin

end P2PState

/-! ## What is asked of a packet -/

/-- The signature of a `Pong` is one of the node that it names. -/
def Pong.Signed (msg : Pong) : Prop :=
  msg.signature ≠ "" ∧ Library.validPublicKey msg.nodeid ∧
    Library.verifySignature msg.nodeid (stampedMessage msg.nodeid msg.stamp) msg.signature

/-- The `Ping` sees the node where it is known to be, if it is known where that is. -/
def Internals.SeenBy (s : Internals) (msg : Ping) : Prop :=
  (s.state.externalIpAddress.local.empty && s.state.externalIpAddress.remote.empty) = true ∨
    externalAddressPing msg = s.state.externalIpAddress

instance (s : Internals) (msg : Ping) : Decidable (s.SeenBy msg) :=
  inferInstanceAs (Decidable (_ ∨ _))

/-- The packet comes in time, and the node has no reason to turn it down but who has sent it. -/
structure Welcome (p : PeerId) (_ : Received) (x : Packet × PacketCalls) (s : Internals) :
    Prop where
  ping : ∀ msg, x.1 = .ping msg → outdated msg.stamp x.2.now = false ∧ s.SeenBy msg
  room : ∀ msg status b, x.1 = .ping msg → P2PState.Added s.state.kbucket ⟨msg.nodeid, p⟩ status b →
    status ≠ .noContact
  pong : ∀ msg, x.1 = .pong msg → outdated msg.stamp x.2.now = false
  told : ∀ origin nodeids, x.1 = .nodeDetails origin nodeids →
    ∀ nodeid ∈ nodeids, ¬ s.state.Barred nodeid

/-- What was delivered behind `before` is answered in the trace. -/
def Answered (selfId : String) (before trace : List SocketEvent) (p : PeerId) : Packet → Prop
  | .streamJoin => ∃ stamp connection, .sent p (signedPing selfId stamp connection) ∈ trace
  | .ping msg => msg.Signed → ∃ stamp,
    .sent p (.pong ⟨selfId, stamp, Library.sign (stampedMessage selfId stamp)⟩) ∈ trace
  | .pong msg => msg.Signed → msg.nodeid ≠ selfId → .sent p (.findNode selfId) ∈ trace
  | .findNode _ => ∃ nodeids, .sent p (.nodeDetails selfId nodeids) ∈ trace
  | .nodeDetails _ nodeids => ∀ nodeid ∈ nodeids, nodeid = selfId ∨
    (∃ q met, Met trace q met ∧ stringDistance met = stringDistance nodeid) ∨
    .sent p (.introduceTo nodeid) ∈ trace
  | .introduceTo nodeid =>
    (∃ q origin nodeids, .sent q (.nodeDetails origin nodeids) ∈ before ∧ nodeid ∈ nodeids) →
    ∃ q met addr addr', Met trace q met ∧ stringDistance met = stringDistance nodeid ∧
      before ++ [.delivered p (.introduceTo nodeid), .sent p (.openConnectionWith addr),
        .sent q (.openConnectionWith addr')] <+: trace
  | _ => True

variable {s s' : Internals} {selfId nodeid : String} {p : PeerId} {calls : PacketCalls}
  {r : Received} {before trace trace' : List SocketEvent} {packet : Packet}

theorem Answered.later (h : Answered selfId before trace p packet) (ht : trace <+: trace') :
    Answered selfId before trace' p packet := by
  cases packet with
  | streamJoin =>
    obtain ⟨stamp, connection, hm⟩ := h
    exact ⟨stamp, connection, ht.subset hm⟩
  | ping msg =>
    intro hsigned
    exact (h hsigned).imp fun _ hm => ht.subset hm
  | pong msg => exact fun hsigned hne => ht.subset (h hsigned hne)
  | findNode name => exact h.imp fun _ hm => ht.subset hm
  | nodeDetails origin nodeids =>
    intro nodeid hin
    refine (h nodeid hin).imp id (Or.imp (fun ⟨q, met, hmet, hplace⟩ => ?_) fun hm => ht.subset hm)
    exact ⟨q, met, hmet.later ht, hplace⟩
  | introduceTo name =>
    intro htold
    obtain ⟨q, met, addr, addr', hmet, hplace, hsent⟩ := h htold
    exact ⟨q, met, addr, addr', hmet.later ht, hplace, hsent.trans ht⟩
  | _ => trivial

/-! ## Programs that send -/

/-- Programs that send what they like. -/
abbrev sends : Frame Internals := utters fun _ _ => True

theorem trace_of_sends (h : sends.le s s') : s.trace <+: s'.trace := by
  obtain ⟨-, new, ht, -⟩ := h
  exact ht ▸ List.prefix_append _ _

theorem sent_skSend (returns : Bool) (p : PeerId) (packet : Packet) :
    Ends sends (skSend returns p packet) s fun _ s' => s'.trace = s.trace ++ [.sent p packet] := by
  cases returns with
  | false => exact ends_error rfl (sends.refl _) trivial
  | true => exact ends_modify ⟨rfl, [(p, packet)], rfl, by simp⟩ rfl

/-- What has just been sent is in the trace from then on. -/
theorem mem_of_sent {s₁ s₂ : Internals} (h : s₁.trace = s.trace ++ [.sent p packet])
    (ht : s₁.trace <+: s₂.trace) : .sent p packet ∈ s₂.trace :=
  ht.subset (h ▸ List.mem_append_right _ List.mem_cons_self)

theorem answers_receiveJoin : Ends sends (receiveJoin p calls r) s fun _ s' =>
    ∃ stamp connection, .sent p (signedPing s.state.selfId stamp connection) ∈ s'.trace := by
  unfold receiveJoin
  refine Ends.get_bind ?_
  split
  · refine (utters_tryState fun t ht => P2PState.selfId_addActive ht).bind fun _ s₁ _ _ => ?_
    refine (sent_skSend _ _ _).bind fun _ s₂ _ hsent => ?_
    refine (utters_updateState rfl).bind fun _ s₃ h₃ _ => ?_
    refine (utters_updateState rfl).bind fun _ s₄ h₄ _ => ?_
    refine (utters_tryState fun t ht => P2PState.selfId_addPassive ht).bind fun _ s₅ h₅ _ => ?_
    have hall : s₂.trace <+: s₅.trace :=
      ((trace_of_sends h₃).trans (trace_of_sends h₄)).trans (trace_of_sends h₅)
    exact ends_pure ⟨_, _, mem_of_sent hsent hall⟩
  · exact ends_error rfl (sends.refl _) trivial

theorem verifySignature_signed {name message signature : String}
    (hkey : Library.validPublicKey name) (hverified : Library.verifySignature name message signature) :
    Ends sends (verifySignature name message signature) s fun b s' => b = true ∧ s' = s := by
  unfold verifySignature
  rw [if_pos hkey]
  exact ends_pure ⟨hverified, rfl⟩

/-- A signed `Ping` that comes in time passes the checks where the node is seen. -/
theorem answers_checkPing {msg : Ping} (hsigned : msg.Signed)
    (hfresh : outdated msg.stamp calls.now = false) (hseen : s.SeenBy msg) :
    Ends sends (checkPing p msg calls r) s fun b _ => b = true := by
  obtain ⟨hne, hkey, hverified⟩ := hsigned
  unfold checkPing
  refine (ends_skCall sends trivial _).bind fun _ s₁ _ h₁ => ?_
  obtain ⟨rfl, -⟩ := h₁
  refine Ends.get_bind ?_
  refine Ends.bind (Q := fun _ _ => True) ?_ fun canReset s₂ _ _ => ?_
  · unfold canResetExternalAddress isTheFirstConfiguredAddress
    refine Ends.get_bind ?_
    split
    · exact ends_pure trivial
    · refine Ends.get_bind ?_
      split
      · exact ends_pure trivial
      · split
        · exact Ends.bind (Q := fun _ _ => True) (ends_modify (quiet_le rfl rfl) trivial)
            fun _ _ _ _ => ends_pure trivial
        · exact ends_pure trivial
  refine Ends.bind (Q := fun b _ => b = true) ?_ fun b s₃ _ hb => ?_
  · unfold authenticatePing
    rw [if_neg (by rw [hfresh]; exact Bool.false_ne_true), if_pos hne]
    refine (verifySignature_signed hkey hverified).bind fun b s₃ _ hb => ?_
    rw [hb.1, if_pos rfl]
    exact (utters_updateState rfl).bind fun _ _ _ _ => ends_pure rfl
  · rw [hb, if_pos rfl]
    unfold acceptExternalAddress
    split
    · exact (utters_updateState rfl).bind fun _ _ _ _ => ends_pure rfl
    · next hno =>
      rw [Bool.or_eq_true, not_or] at hno
      exact ends_pure (decide_eq_true (hseen.resolve_left hno.1))

theorem answers_registerPing {msg : Ping} (hne : msg.signature ≠ "") :
    Ends sends (registerPing p msg calls r) s fun _ s' => ∃ stamp, .sent p (.pong ⟨s.state.selfId,
      stamp, Library.sign (stampedMessage s.state.selfId stamp)⟩) ∈ s'.trace := by
  unfold registerPing
  refine Ends.bind (Q := fun _ _ => True) ?_ fun status s₁ h₁ _ => ?_
  · unfold addContact
    refine Ends.get_bind ?_
    split
    · next status t' hadd =>
      have hid : t'.selfId = s.state.selfId := by
        rcases s.state.addContact_cases p msg.nodeid with ⟨status, b, -, hrun⟩ | ⟨-, what, -, hrun⟩
        · obtain ⟨-, rfl⟩ := Prod.mk.inj (Except.ok.inj (hadd.symm.trans hrun))
          rfl
        · cases hadd.symm.trans hrun
      exact (utters_updateState hid).bind fun _ _ _ _ => ends_pure trivial
    · exact ends_error rfl (sends.refl _) trivial
  refine Ends.get_bind ?_
  dsimp only
  rw [h₁.1, if_pos hne]
  refine (sent_skSend _ _ _).bind fun _ s₂ _ hsent => ?_
  split
  · refine (utters_updateState rfl).bind fun _ s₃ h₃ _ => ?_
    refine (utters_tryState fun t ht => P2PState.selfId_setActiveNodeid ht).bind fun _ s₄ h₄ _ => ?_
    exact ends_pure ⟨_, mem_of_sent hsent ((trace_of_sends h₃).trans (trace_of_sends h₄))⟩
  · refine (utters_updateState (P2PState.selfId_processNodeDrop _)).bind fun _ s₃ h₃ _ => ?_
    exact ends_pure ⟨_, mem_of_sent hsent (trace_of_sends h₃)⟩

theorem answers_receivePing {msg : Ping} (hsigned : msg.Signed)
    (hfresh : outdated msg.stamp calls.now = false) (hseen : s.SeenBy msg) :
    Ends sends (receivePing p msg calls r) s fun _ s' => ∃ stamp, .sent p (.pong ⟨s.state.selfId,
      stamp, Library.sign (stampedMessage s.state.selfId stamp)⟩) ∈ s'.trace := by
  refine (answers_checkPing hsigned hfresh hseen).bind fun b s₁ h₁ hb => ?_
  rw [hb, if_pos rfl, ← h₁.1]
  exact answers_registerPing hsigned.1

theorem answers_receivePong {msg : Pong} (hsigned : msg.Signed) (hne : msg.nodeid ≠ s.state.selfId)
    (hfresh : outdated msg.stamp calls.now = false) :
    Ends sends (receivePong p msg calls) s
      fun _ s' => .sent p (.findNode s.state.selfId) ∈ s'.trace := by
  obtain ⟨hsignature, hkey, hverified⟩ := hsigned
  unfold receivePong
  refine Ends.bind (Q := fun b s' => b = true ∧ s' = s) ?_ fun b s₁ _ h₁ => ?_
  · unfold checkPong
    refine Ends.get_bind ?_
    rw [if_neg (Ne.symm hne), if_neg (by rw [hfresh]; exact Bool.false_ne_true), if_pos hsignature]
    exact verifySignature_signed hkey hverified
  · obtain ⟨rfl, rfl⟩ := h₁
    exact Ends.get_bind ((sent_skSend _ _ _).mono fun _ _ _ h => mem_of_sent h (List.prefix_refl _))

theorem answers_receiveFindNode : Ends sends (receiveFindNode p calls) s fun _ s' =>
    .sent p (.nodeDetails s.state.selfId s.state.getKbucketNodeids) ∈ s'.trace :=
  Ends.get_bind ((sent_skSend _ _ _).mono fun _ _ _ h => mem_of_sent h (List.prefix_refl _))

theorem answers_receiveNodeDetails {nodeids : List String}
    (h : ∀ nodeid ∈ nodeids, ¬ s.state.Barred nodeid) :
    Ends sends (receiveNodeDetails p nodeids calls) s fun _ s' => ∀ nodeid ∈ nodeids,
      nodeid = s.state.selfId ∨ s.state.HasPlace nodeid ∨
        .sent p (.introduceTo nodeid) ∈ s'.trace := by
  have hasks := P2PState.filterIntroduceCandidates_asks h
  unfold receiveNodeDetails
  refine Ends.get_bind ?_
  refine (utters_updateState (P2PState.filterIntroduceCandidates_kept nodeids).1).bind
    fun _ s₁ _ _ => ?_
  refine (ends_foldlM (fun rest _ t => ∀ x ∈ (s.state.filterIntroduceCandidates nodeids).1.zipIdx,
    x ∈ rest ∨ .sent p (.introduceTo x.1) ∈ t.trace) (fun x rest _ t _ hrest => ?_) _ () s₁
    (sends.refl s₁) fun x hx => .inl hx).mono fun _ s₂ _ hall nodeid hin => ?_
  · refine (sent_skSend _ _ _).mono fun _ t' hle hsent y hy => ?_
    rcases hrest y hy with hmem | hold
    · rcases List.mem_cons.mp hmem with rfl | hmem
      · exact .inr (mem_of_sent hsent (List.prefix_refl _))
      · exact .inl hmem
    · exact .inr ((trace_of_sends hle).subset hold)
  · refine (hasks nodeid hin).imp id (Or.imp id fun hwanted => ?_)
    rw [← List.zipIdx_map_fst 0 (P2PState.filterIntroduceCandidates _ _).1] at hwanted
    obtain ⟨x, hx, rfl⟩ := List.mem_map.mp hwanted
    exact (hall x hx).resolve_left List.not_mem_nil

theorem answers_receiveIntroduceTo {name : String} {q : PeerId}
    (hq : s.state.getPeerId name = some q) :
    Ends sends (receiveIntroduceTo p name calls r) s fun _ s' => ∃ addr addr', s'.trace = s.trace ++
      [.sent p (.openConnectionWith addr), .sent q (.openConnectionWith addr')] := by
  have hrequest : s.state.processIntroduceRequest name = some q := hq
  unfold receiveIntroduceTo
  refine Ends.get_bind ?_
  rw [hrequest]
  refine (ends_skCall sends trivial _).bind fun addr s₁ _ h₁ => ?_
  obtain ⟨rfl, -⟩ := h₁
  refine (sent_skSend _ _ _).bind fun _ s₂ _ h₂ => (sent_skSend _ _ _).mono fun _ s₃ _ h₃ => ?_
  refine ⟨addr, r.currentConnection, ?_⟩
  rw [h₃, h₂, List.append_assoc]
  rfl

/-- A welcome packet is answered, when it does not throw. -/
theorem answered_receiveCase (ha : Acquainted s) (name : String) {x : Packet × PacketCalls}
    {t : Received} (hc : Welcome p t x s) (hbefore : s.trace = before ++ [.delivered p x.1])
    (hknown : ∀ nodeid, (∃ q origin nodeids, .sent q (.nodeDetails origin nodeids) ∈ before ∧
      nodeid ∈ nodeids) → s.state.HasPlace nodeid) :
    Ends sends (receiveCase p name x.2 r x.1) s
      fun _ s' => Answered s.state.selfId before s'.trace p x.1 := by
  obtain ⟨packet, calls⟩ := x
  have hany : ∀ {m : SocketM Received}, Ends sends m s (fun _ _ => True) → ∀ {packet : Packet},
      (∀ trace, Answered s.state.selfId before trace p packet) →
      Ends sends m s fun _ s' => Answered s.state.selfId before s'.trace p packet :=
    fun h _ hall => h.mono fun _ s' _ _ => hall s'.trace
  have hcase : Ends (utters (Replies s.state p packet)) (receiveCase p name calls r packet) s
      fun _ _ => True := utters_receiveCase name packet
  have hsends : Ends sends (receiveCase p name calls r packet) s fun _ _ => True :=
    hcase.weaken (fun _ ⟨hid, new, ht, _⟩ => ⟨hid, new, ht, fun _ _ => trivial⟩) fun h => h
  cases packet with
  | streamJoin => exact answers_receiveJoin
  | ping msg =>
    by_cases hsigned : msg.Signed
    · obtain ⟨hfresh, hseen⟩ := hc.ping msg rfl
      exact (answers_receivePing hsigned hfresh hseen).mono fun _ _ _ h _ => h
    · exact hsends.mono fun _ _ _ _ h => absurd h hsigned
  | pong msg =>
    by_cases hboth : msg.Signed ∧ msg.nodeid ≠ s.state.selfId
    · refine (answers_receivePong hboth.1 hboth.2 (hc.pong msg rfl)).bind fun _ _ _ h => ?_
      exact ends_pure fun _ _ => h
    · exact hsends.mono fun _ _ _ _ h h' => absurd ⟨h, h'⟩ hboth
  | findNode nodeid => exact answers_receiveFindNode.bind fun _ _ _ h => ends_pure ⟨_, h⟩
  | nodeDetails origin nodeids =>
    refine (answers_receiveNodeDetails (hc.told origin nodeids rfl)).bind fun _ s₁ h₁ h =>
      ends_pure fun nodeid hin => (h nodeid hin).imp id (Or.imp (fun ⟨c, hm, hplace⟩ => ?_) id)
    exact ⟨c.peer, c.nodeId, (ha.contact c hm).later (trace_of_sends h₁), hplace⟩
  | introduceTo nodeid =>
    by_cases htold : ∃ q origin nodeids, .sent q (.nodeDetails origin nodeids) ∈ before ∧
        nodeid ∈ nodeids
    · obtain ⟨q, hq⟩ := (hknown nodeid htold).getPeerId
      obtain ⟨met, hmet, hplace⟩ := ha.met_of_getPeerId hq
      refine (answers_receiveIntroduceTo hq).bind fun _ s₁ h₁ h => ends_pure fun _ => ?_
      obtain ⟨addr, addr', ht⟩ := h
      refine ⟨q, met, addr, addr', hmet.later (trace_of_sends h₁), hplace, ?_⟩
      rw [ht, hbefore, List.append_assoc]
      exact List.prefix_refl _
    · exact hsends.mono fun _ _ _ _ h => absurd h htold
  | _ => exact hany hsends fun _ => trivial

/-! ## Places that are kept -/

theorem Effect.hasPlace {result : Option Received} (hi : s.state.Indexed)
    (he : Effect s p r calls packet result s') (h : s.state.HasPlace nodeid) :
    s'.state.HasPlace nodeid := by
  cases he with
  | calm hm hc => exact h.of_eq (hc.state hi).kbucket
  | thrown hc => exact h.of_eq (hc.state hi).kbucket
  | ignored hc => exact h.of_eq (hc.state hi).kbucket
  | joined hport hc hr => exact h.of_eq (hc.state hi).kbucket
  | errored hc => exact h.of_eq (hc.state hi).kbucket
  | dropped hc => exact h.of_eq (hc.state hi).kbucket
  | registered hacc hb hstatus hsend hc => exact (hb.hasPlace h).of_eq (hc.state hi).kbucket
  | unanswered hacc hb hsend hc => exact (hb.hasPlace h).of_eq (hc.state hi).kbucket

theorem registerPing_place {s₁ : Internals} {msg : Ping} (hi : s.state.Indexed) (h₁ : Calm s s₁)
    (hroom : ∀ status b, P2PState.Added s.state.kbucket ⟨msg.nodeid, p⟩ status b →
      status ≠ .noContact) :
    Leaves (registerPing p msg calls r) s₁ (fun _ s' => s'.state.HasPlace msg.nodeid)
      fun _ => True := by
  have hk : s₁.state.kbucket = s.state.kbucket := (h₁.state hi).kbucket
  unfold registerPing
  rcases s₁.state.addContact_cases p msg.nodeid with ⟨status, b, hb, hrun⟩ | ⟨hf, what, hins, hrun⟩
  · rw [hk] at hb
    have hadd : addContact p msg.nodeid s₁ =
        .ok status { s₁ with state := { s₁.state with kbucket := b } } := by
      unfold addContact
      rw [get_bind_run, hrun]
      rfl
    refine (leaves_ok hadd (Q := fun a s₂ => a = status ∧
      Turn (fun t t' => P2PState.Same { t with kbucket := b } t') s s₂) ⟨rfl, fun hs =>
        (h₁.state hs).setKbucket b, h₁.notify, h₁.trace⟩).bind fun a s₂ _ h₂ => ?_
    obtain ⟨rfl, h₂⟩ := h₂
    refine Leaves.get_bind ?_
    cases hsend : calls.send 0 with
    | false => exact leaves_error rfl trivial
    | true =>
      refine (leaves_sent (Q := fun _ s₃ => Turn (fun t t' =>
        P2PState.Same { t with kbucket := b } t') s s₃)
        ⟨h₂.state, h₂.notify, h₂.trace.trans (List.prefix_append _ _)⟩).bind fun _ s₃ _ h₃ => ?_
      rw [if_pos (hroom a b hb)]
      exact leaves_adopts hi h₃ fun s' h =>
        (hb.place (hroom a b hb)).of_eq (h.state hi).kbucket
  · have hadd : addContact p msg.nodeid s₁ = .error (.logicError what) s₁ := by
      unfold addContact
      rw [get_bind_run, hrun]
      rfl
    exact (leaves_error hadd trivial).bind (Q := fun _ _ => False) fun _ _ _ h => h.elim

theorem trace_of_silent (h : (utters fun _ _ => False).le s s') : s'.trace = s.trace := by
  obtain ⟨-, new, ht, hnone⟩ := h
  cases new with
  | nil => simpa using ht
  | cons x rest => exact (hnone x List.mem_cons_self).elim

/-- A `Ping` that is answered has its place behind it. -/
theorem receivePing_place {msg : Ping} (hi : s.state.Indexed)
    (hroom : ∀ status b, P2PState.Added s.state.kbucket ⟨msg.nodeid, p⟩ status b →
      status ≠ .noContact) :
    Leaves (receivePing p msg calls r) s
      (fun _ s' => s'.trace = s.trace ∨ s'.state.HasPlace msg.nodeid) fun _ => True := by
  have hutters : Ends (utters fun _ _ => False) (checkPing p msg calls r) s fun _ _ => True :=
    utters_checkPing msg
  have hcheck := (calm_checkPing p msg calls r (s := s)).leaves.and hutters.leaves
  unfold receivePing
  refine (hcheck.mono (fun _ _ h => h) fun _ _ => trivial).bind fun b s₁ _ h₁ => ?_
  cases b with
  | false => exact leaves_pure (.inl (trace_of_silent h₁.2.1))
  | true => exact (registerPing_place hi h₁.1.1 hroom).mono (fun _ _ h => .inr h) fun _ h => h

/-! ## What was delivered is answered -/

/-- An element of two lists together is in the first one or in the second. -/
theorem cons_of_append {α : Type} {l l' b a : List α} {e : α} (h : l ++ l' = b ++ e :: a) :
    (∃ a', l = b ++ e :: a') ∨ ∃ b', b = l ++ b' ∧ l' = b' ++ e :: a := by
  rcases List.append_eq_append_iff.mp h with ⟨b', hb, hl'⟩ | ⟨a', hl, hea⟩
  · exact .inr ⟨b', hb, hl'⟩
  · cases a' with
    | nil => exact .inr ⟨[], by simpa using hl.symm, hea.symm⟩
    | cons e' a' =>
      obtain ⟨rfl, -⟩ := List.cons.inj hea
      exact .inl ⟨a', hl⟩

/-- The node has answered what it was given, the peers that it has answered a `Ping` of have their
places, and whom it told of its contacts it told of all of these. -/
structure Attentive (selfId : String) (s : Internals) : Prop where
  answered : ∀ before p packet after, s.trace = before ++ .delivered p packet :: after →
    Answered selfId before s.trace p packet
  registered : ∀ p pong, .sent p (.pong pong) ∈ s.trace →
    ∃ met, Met s.trace p met ∧ s.state.HasPlace met
  known : ∀ p origin nodeids, .sent p (.nodeDetails origin nodeids) ∈ s.trace →
    ∀ nodeid ∈ nodeids, s.state.HasPlace nodeid
  listed : ∀ before p origin nodeids after,
    s.trace = before ++ .sent p (.nodeDetails origin nodeids) :: after →
    ∀ q pong, .sent q (.pong pong) ∈ before → ∃ met, Met before q met ∧
      ∃ nodeid ∈ nodeids, stringDistance nodeid = stringDistance met

/-- What has to be said of the events that a step adds. -/
theorem Attentive.extend {events : List SocketEvent} (h : Attentive selfId s)
    (ht : s'.trace = s.trace ++ events)
    (hkeep : ∀ nodeid, s.state.HasPlace nodeid → s'.state.HasPlace nodeid)
    (hanswered : ∀ b q packet a, events = b ++ .delivered q packet :: a →
      Answered selfId (s.trace ++ b) s'.trace q packet)
    (hregistered : ∀ q pong, .sent q (.pong pong) ∈ events →
      ∃ met, Met s'.trace q met ∧ s'.state.HasPlace met)
    (hlisted : ∀ b q origin nodeids a, events = b ++ .sent q (.nodeDetails origin nodeids) :: a →
      (∀ nodeid ∈ nodeids, s'.state.HasPlace nodeid) ∧
      ∀ q' pong, .sent q' (.pong pong) ∈ s.trace ++ b → ∃ met, Met (s.trace ++ b) q' met ∧
        ∃ nodeid ∈ nodeids, stringDistance nodeid = stringDistance met) :
    Attentive selfId s' := by
  have hprefix : s.trace <+: s'.trace := ht ▸ List.prefix_append _ _
  refine ⟨fun before q packet after htrace => ?_, fun q pong hm => ?_,
    fun q origin nodeids hm nodeid hin => ?_, fun before q origin nodeids after htrace => ?_⟩
  · rcases cons_of_append (ht.symm.trans htrace) with ⟨after', hold⟩ | ⟨b, rfl, hnew⟩
    · exact (h.answered before q packet after' hold).later hprefix
    · exact hanswered b q packet after hnew
  · rw [ht] at hm
    rcases List.mem_append.mp hm with hm | hm
    · obtain ⟨met, hmet, hplace⟩ := h.registered q pong hm
      exact ⟨met, hmet.later hprefix, hkeep met hplace⟩
    · exact hregistered q pong hm
  · rw [ht] at hm
    rcases List.mem_append.mp hm with hm | hm
    · exact hkeep nodeid (h.known q origin nodeids hm nodeid hin)
    · obtain ⟨b, a, hnew⟩ := List.append_of_mem hm
      exact (hlisted b q origin nodeids a hnew).1 nodeid hin
  · rcases cons_of_append (ht.symm.trans htrace) with ⟨after', hold⟩ | ⟨b, rfl, hnew⟩
    · exact h.listed before q origin nodeids after' hold
    · exact (hlisted b q origin nodeids after hnew).2

/-- The node sends neither a `Pong` nor its contacts, and is given nothing. -/
theorem Attentive.aside {allowed : PeerId → Packet → Prop} (h : Attentive selfId s)
    (hle : (utters allowed).le s s')
    (hkeep : ∀ nodeid, s.state.HasPlace nodeid → s'.state.HasPlace nodeid)
    (hallowed : ∀ q packet, allowed q packet → (∀ pong, packet ≠ .pong pong) ∧
      ∀ origin nodeids, packet ≠ .nodeDetails origin nodeids) : Attentive selfId s' := by
  obtain ⟨-, new, ht, hnew⟩ := hle
  have hsent : ∀ {q : PeerId} {packet : Packet},
      .sent q packet ∈ new.map (fun x => SocketEvent.sent x.1 x.2) → allowed q packet := by
    intro q packet hm
    obtain ⟨x, hx, he⟩ := List.mem_map.mp hm
    obtain ⟨rfl, rfl⟩ := SocketEvent.sent.inj he
    exact hnew x hx
  refine h.extend ht hkeep (fun b q packet a he => ?_) (fun q pong hm => ?_)
    fun b q origin nodeids a he => ?_
  · have hm : SocketEvent.delivered q packet ∈ new.map fun x => SocketEvent.sent x.1 x.2 :=
      he ▸ List.mem_append_right _ List.mem_cons_self
    obtain ⟨x, -, hx⟩ := List.mem_map.mp hm
    cases hx
  · exact absurd rfl ((hallowed _ _ (hsent hm)).1 pong)
  · exact absurd rfl ((hallowed _ _ (hsent (he ▸ List.mem_append_right _ List.mem_cons_self))).2
      origin nodeids)

/-- A packet is delivered and then answered. -/
theorem Attentive.replied (h : Attentive selfId s)
    (hle : (utters (Replies s.state p packet)).le (s.delivered p packet) s')
    (hkeep : ∀ nodeid, s.state.HasPlace nodeid → s'.state.HasPlace nodeid)
    (hanswered : Answered selfId s.trace s'.trace p packet)
    (hping : ∀ msg, packet = .ping msg → s'.trace = (s.delivered p packet).trace ∨
      s'.state.HasPlace msg.nodeid) : Attentive selfId s' := by
  obtain ⟨-, new, ht, hnew⟩ := hle
  have htrace : s'.trace = s.trace ++ .delivered p packet :: new.map fun x => .sent x.1 x.2 :=
    ht.trans (List.append_assoc _ _ _)
  have hsent : ∀ {q : PeerId} {answer : Packet}, .sent q answer ∈
      SocketEvent.delivered p packet :: new.map (fun x => SocketEvent.sent x.1 x.2) →
      Replies s.state p packet q answer := by
    intro q answer hm
    obtain ⟨x, hx, he⟩ := List.mem_map.mp ((List.mem_cons.mp hm).resolve_left (fun he => nomatch he))
    obtain ⟨rfl, rfl⟩ := SocketEvent.sent.inj he
    exact hnew x hx
  refine h.extend htrace hkeep (fun b q answer a he => ?_) (fun q pong hm => ?_)
    fun b q origin nodeids a he => ?_
  · cases b with
    | nil =>
      obtain ⟨heq, -⟩ := List.cons.inj he
      obtain ⟨rfl, rfl⟩ := SocketEvent.delivered.inj heq
      rw [List.append_nil]
      exact hanswered
    | cons event b =>
      have hm : SocketEvent.delivered q answer ∈ new.map fun x => SocketEvent.sent x.1 x.2 :=
        (List.cons.inj he).2 ▸ List.mem_append_right _ List.mem_cons_self
      obtain ⟨x, -, hx⟩ := List.mem_map.mp hm
      cases hx
  · have hreply := hsent hm
    obtain ⟨msg, rfl, rfl⟩ : ∃ msg, packet = .ping msg ∧ q = p := by
      cases hreply with
      | pong msg stamp signature hs => exact ⟨msg, rfl, rfl⟩
    refine ⟨msg.nodeid, ⟨msg, ?_, rfl⟩, (hping msg rfl).resolve_left fun heq => ?_⟩
    · rw [htrace]
      exact List.mem_append_right _ List.mem_cons_self
    · -- something was sent, so the trace has not stayed what it was
      have hnil : new.map (fun x => SocketEvent.sent x.1 x.2) = [] :=
        List.append_cancel_left ((ht.symm.trans heq).trans (List.append_nil _).symm)
      rw [hnil] at hm
      exact absurd ((List.mem_singleton.mp hm).symm) fun he => nomatch he
  · have hreply : Replies s.state p packet q (.nodeDetails origin nodeids) :=
      hsent (he ▸ List.mem_append_right _ List.mem_cons_self)
    obtain ⟨rfl, name, rfl⟩ : nodeids = s.state.getKbucketNodeids ∧
        ∃ name, packet = .findNode name := by
      cases hreply with
      | nodeDetails name => exact ⟨rfl, name, rfl⟩
    refine ⟨fun nodeid hin => hkeep nodeid (P2PState.hasPlace_of_listed hin), fun q' pong hm => ?_⟩
    rcases List.mem_append.mp hm with hm | hm
    · obtain ⟨met, hmet, hplace⟩ := h.registered q' pong hm
      exact ⟨met, hmet.later (List.prefix_append _ _), hplace.listed⟩
    · have hpong : Replies s.state p (.findNode name) q' (.pong pong) :=
        hsent (he ▸ List.mem_append_left _ hm)
      cases hpong

theorem Attentive.receives (h : Attentive selfId s) (hs : Speaks selfId s) {x : Packet × PacketCalls}
    (hc : Welcome p r x s) :
    Leaves (receivePacket p r x) s (fun _ s' => Attentive selfId s') fun _ => True := by
  have hi := hs.acquainted.indexed
  have hacq : Acquainted (s.delivered p x.1) := (hs.delivered p x.1).acquainted
  have heffect := receivePacket_effect hi p r x
  have hutters := utters_receivePacket hi p r x
  have hanswered : Leaves (receivePacket p r x) s
      (fun _ s' => Answered selfId s.trace s'.trace p x.1) fun _ => True := by
    unfold Leaves
    rw [receivePacket_run hi, ← hs.name]
    refine (answered_receiveCase (s := s.delivered p x.1) (t := r) hacq _
      ⟨hc.ping, hc.room, hc.pong, hc.told⟩ rfl fun nodeid htold => ?_).leaves.mono
        (fun _ _ h => h.2) fun _ _ => trivial
    obtain ⟨q, origin, nodeids, hm, hin⟩ := htold
    exact h.known q origin nodeids hm nodeid hin
  have hping : Leaves (receivePacket p r x) s (fun _ s' => ∀ msg, x.1 = .ping msg →
      s'.trace = (s.delivered p x.1).trace ∨ s'.state.HasPlace msg.nodeid) fun _ => True := by
    obtain ⟨packet, calls⟩ := x
    by_cases hex : ∃ msg, packet = .ping msg
    · obtain ⟨msg, rfl⟩ := hex
      unfold Leaves
      rw [receivePacket_run hi]
      have hplace : Leaves (receivePing p msg calls (r.connected (.ping msg) calls))
          (s.delivered p (.ping msg)) (fun _ s' => s'.trace = (s.delivered p (.ping msg)).trace ∨
            s'.state.HasPlace msg.nodeid) fun _ => True :=
        receivePing_place hi fun status b => hc.room msg status b rfl
      refine hplace.mono (fun _ s' h msg' he => ?_) fun _ h => h
      obtain rfl := Packet.ping.inj he
      exact h
    · unfold Leaves
      split
      · exact fun msg he => absurd ⟨msg, he⟩ hex
      · trivial
  refine (((heffect.and hutters).and hanswered).and hping).mono (fun _ s' hall => ?_)
    fun _ _ => trivial
  obtain ⟨⟨⟨he, hle⟩, ha⟩, hp⟩ := hall
  exact h.replied hle (fun nodeid hplace => he.hasPlace (s := s.delivered p x.1) hi hplace) ha hp

/-! ## Steps -/

/-- Nothing that is due to be removed has a node. -/
def P2PState.Punctual (t : P2PState) : Prop :=
  ∀ (i : Nat) (item : StateItem PeerState), t.itemAt i = some item → t.programState.due i →
    item.value.nodeId = ""

/-- No `receive` throws, all packets are welcome, and no peer with a node is removed, neither by a
time-out nor after a drop. -/
def Prompt (s : Internals) (op : P2POp) : Prop :=
  match op with
  | .receive ord peer batch => ReceiveMeets Welcome ord peer batch s ∧ ∀ e, (s.step op).1 ≠ .thrown e
  | .prepareWait _ => s.state.Punctual
  | _ => True

theorem steady_bucket (b : KBucket Konnection) :
    Steady (fun s => s.state.Indexed ∧ s.state.kbucket = b) fun _ _ _ => True where
  indexed _ h := h.1
  calm _ _ h hc := ⟨(hc.state h.1).indexed, (hc.state h.1).kbucket.trans h.2⟩
  activates _ _ _ _ h _ hc := ⟨(hc.state h.1).indexed, (hc.state h.1).kbucket.trans h.2⟩

theorem prepareWait_bucket (hi : s.state.Indexed) (hp : s.state.Punctual) (calls : WaitCalls) :
    Leaves (prepareWait calls) s (fun _ s' => s'.state.kbucket = s.state.kbucket)
      fun s' => s'.state.kbucket = s.state.kbucket := by
  obtain ⟨keys, drops, indices, s₁, hclears, hr, -, hrun⟩ := removePending_run hi calls
  have hkeys : keys = [] := List.eq_nil_iff_forall_not_mem.mpr fun x hx => by
    obtain ⟨i, item, info, hitem, hinfo, hsteps, hne, -⟩ := (hr.keys x).mp hx
    exact hne (hp i item hitem (CommunicationState.due_iff.mpr ⟨info, hinfo, hsteps⟩))
  have h₁ : s₁.state.Indexed ∧ s₁.state.kbucket = s.state.kbucket := by
    refine ⟨hclears.indexed, ?_⟩
    rw [hclears.kbucket, hkeys]
    rfl
  let I (t : Internals) : Prop := t.state.Indexed ∧ t.state.kbucket = s.state.kbucket
  have hb : Steady I fun _ _ _ => True := steady_bucket s.state.kbucket
  have hcalm : ∀ {m : SocketM Unit} {t : Internals} {Q : Unit → Internals → Prop},
      Ends calm m t Q → Ends (Frame.keeps I) m t fun _ _ => True := fun h =>
    ends_keeps fun hi => (hb.keeps_calm hi h).mono fun _ _ _ _ => trivial
  have hdrops : Ends (Frame.keeps I) (drops.foldlM (fun _ q => dropRemoved calls q) ()) s₁
      fun _ _ => True := hcalm (calm_foldlM (fun p _ => calm_dropRemoved calls p) _)
  have hattend : ∀ t, Ends (Frame.keeps I) (attend calls) t fun _ _ => True := fun t =>
    ends_attend (fun _ => trivial)
      (fun x t => ends_keeps fun hi => (hb.listenOn hi calls x fun _ _ =>
        foldMeets_of_forall (fun _ _ _ _ _ => trivial) _ _ _).mono fun _ _ _ _ => trivial)
      (fun toConnect _ => hcalm (calm_reconnect calls toConnect))
      fun x _ => hcalm (calm_openTo calls x)
  have hall := (hdrops.bind fun _ t _ _ => hattend t).leaves
  rw [prepareWait_eq, Leaves]
  have hsame : (removePending calls >>= fun _ => attend calls) s =
      (drops.foldlM (fun _ q => dropRemoved calls q) () >>= fun _ => attend calls) s₁ := by
    change EStateM.bind _ _ s = EStateM.bind _ _ s₁
    unfold EStateM.bind
    rw [hrun]
  rw [hsame]
  exact hall.mono (fun _ _ h => (h.1 h₁).2) fun _ h => (h h₁).2

/-- One step in a run of a node that is prompt. -/
theorem Attentive.step (h : Attentive selfId s) (hs : Speaks selfId s) {op : P2POp}
    (hc : Prompt s op) : Attentive selfId (s.step op).2 := by
  have hi := hs.acquainted.indexed
  cases op with
  | receive ord peer batch =>
    have hreceive : Leaves (P2PSocket.receive ord peer batch) s (fun _ s' => Attentive selfId s')
        fun _ => True := by
      unfold P2PSocket.receive
      refine Leaves.get_bind ?_
      cases hkeys : ord.order s.notifyRemovedPeers.keys with
      | cons removed rest => exact leaves_ok rfl ⟨h.answered, h.registered, h.known, h.listed⟩
      | nil =>
        cases batch with
        | none => exact leaves_error rfl trivial
        | some b =>
          have hloop := leaves_foldlM_meets (C := Welcome b.1) (f := receivePacket b.1)
            (E := fun _ => True) (fun _ s => Attentive selfId s ∧ Speaks selfId s)
            (fun x r t hx ht => ((ht.1.receives ht.2 hx).and (ht.2.packet b.1 r x)).mono
              (fun _ _ h => h) fun _ _ => trivial) b.2 ⟨peer, .none, []⟩ s
            (hc.1 hkeys b.1 b.2 rfl) ⟨h, hs⟩
          exact hloop.bind fun r s' _ h => leaves_pure h.1
    have hreturns := hc.2
    unfold Internals.step at hreturns ⊢
    dsimp only at hreturns ⊢
    cases hrun : P2PSocket.receive ord peer batch s with
    | ok r s' => exact hreceive.of_ok hrun
    | error e s' =>
      rw [hrun] at hreturns
      exact absurd rfl (hreturns e)
  | prepareWait calls =>
    have hbucket : (s.step (.prepareWait calls)).2.state.kbucket = s.state.kbucket :=
      outcome_of_leaves (fun _ => .done) (P := fun s' => s'.state.kbucket = s.state.kbucket)
        (prepareWait_bucket hi hc calls) fun _ _ h => h
    refine h.aside (outcome_le _ (utters_prepareWait calls)) (fun _ hp => hp.of_eq hbucket) ?_
    rintro q packet rfl
    exact ⟨fun _ he => (nomatch he), fun _ _ he => nomatch he⟩
  | send peer pack returns =>
    have hbucket : (s.step (.send peer pack returns)).2.state.kbucket = s.state.kbucket :=
      outcome_of_leaves (fun _ => .done) (P := fun s' => s'.state.kbucket = s.state.kbucket)
        ((send_effect peer pack returns).mono (fun _ s' h => by
          rcases h with ⟨-, h⟩ | ⟨-, p, -, h⟩
          · exact (h.state hi).kbucket
          · exact (h.state hi).kbucket) fun s' h => (h.state hi).kbucket) fun _ _ h => h
    refine h.aside (outcome_le _ (utters_send peer pack returns)) (fun _ hp => hp.of_eq hbucket) ?_
    rintro q packet ⟨-, contents, -, rfl⟩
    exact ⟨fun _ he => (nomatch he), fun _ _ he => nomatch he⟩
  | timerAction calls =>
    have hcalm : Calm s (s.step (.timerAction calls)).2 :=
      outcome_of_leaves (fun _ => .done) (P := Calm s)
        ((calm_timerAction calls).leaves.mono (fun _ _ h => h.1) fun _ h => h) fun _ _ h => h
    refine h.aside (outcome_le _ (utters_timerAction calls))
      (fun _ hp => hp.of_eq (hcalm.state hi).kbucket) ?_
    rintro q packet ⟨stamp, connection, rfl⟩
    exact ⟨fun _ he => (nomatch he), fun _ _ he => nomatch he⟩

theorem attentive_create {discoveryServer : Bool} {bindToAddress : IpAddress}
    {connectToAddresses : List IpAddress}
    (h : create discoveryServer bindToAddress connectToAddresses selfId = .ok s) :
    Attentive selfId s := by
  have htrace : s.trace = [] := (create_same h).2.2
  have hnone : ∀ event : SocketEvent, event ∉ s.trace := by
    intro event hm
    rw [htrace] at hm
    cases hm
  refine ⟨fun before p packet after ht => ?_, fun _ _ hm => absurd hm (hnone _),
    fun _ _ _ hm => absurd hm (hnone _), fun before p origin nodeids after ht => ?_⟩
  · exact absurd (ht ▸ List.mem_append_right _ List.mem_cons_self)
      (hnone (.delivered p packet))
  · exact absurd (ht ▸ List.mem_append_right _ List.mem_cons_self)
      (hnone (.sent p (.nodeDetails origin nodeids)))

end

end MeshPP.P2PSocket
